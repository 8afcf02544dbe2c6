import Mathlib.Data.List.ReduceOption
import Sshx.MailboxReference

/-! What a peer gets from its mailbox when its requests run one at a time, read off the reference
mailbox and carried to the server by `Tracks`. The pulls write pushed envelopes in push order, each
at most once; envelopes pushed to a full FIFO are dropped and the first 64 kept; and 15 ticks with no
push remove the mailbox and stop its watchdog, after which a pull is empty and a push starts a new
mailbox. Pulls between the ticks change nothing: only a successful push resets the counter. These
are the boundary cases of the documented contract. When requests of one peer overlap, the contract
fails: see the schedules in `MailboxInvariant` and `MailboxOwnership`. -/

namespace Sshx.Signaling

open Types

/-- The envelope a request pushes, if any. -/
def Op.pushed : Op → Option SignalingInfo
  | .push info => some info
  | _ => none

namespace Mailbox

/-- The pending envelopes of a mailbox; an absent mailbox has none. -/
def pending (mb : Option Mailbox) : List SignalingInfo :=
  (mb.map fifo).getD []

@[simp] theorem pending_none : pending none = [] := rfl

@[simp] theorem pending_some (mb : Mailbox) : pending (some mb) = mb.fifo := rfl

theorem pending_push (mb : Option Mailbox) (info : SignalingInfo) :
    pending (push mb info) =
      if (pending mb).length < 64 then pending mb ++ [info] else pending mb := by
  cases mb <;> simp only [push, Option.getD_none, Option.getD_some, pending_none, pending_some] <;>
    split_ifs <;> rfl

theorem pending_tick_sublist (mb : Option Mailbox) : (pending (tick mb)).Sublist (pending mb) := by
  rcases mb with _ | ⟨fifo, k⟩
  · simp [tick]
  · simp only [tick]; split_ifs <;> simp

theorem after_append (mb : Option Mailbox) (ops ops' : List Op) :
    after mb (ops ++ ops') = after (after mb ops) ops' := by
  induction ops generalizing mb with
  | nil => rfl
  | cons op ops ih => exact ih _

theorem bodies_append (mb : Option Mailbox) (ops ops' : List Op) :
    bodies mb (ops ++ ops') = bodies mb ops ++ bodies (after mb ops) ops' := by
  induction ops generalizing mb with
  | nil => rfl
  | cons op ops ih => simp [bodies, after, ih]

/-- The envelopes the pulls write are a sublist of those pending followed by those pushed: pushed
envelopes, in push order, each at most once. -/
theorem bodies_reduceOption_sublist (mb : Option Mailbox) (ops : List Op) :
    (bodies mb ops).reduceOption.Sublist (pending mb ++ ops.filterMap Op.pushed) := by
  induction ops generalizing mb with
  | nil => simp [bodies]
  | cons op ops ih =>
      cases op with
      | push info =>
          simp only [bodies, step, Option.toList_none, List.nil_append, List.filterMap_cons,
            Op.pushed]
          refine (ih (push mb info)).trans ?_
          rw [pending_push]
          split_ifs
          · simp
          · exact (List.sublist_cons_self _ _).append_left _
      | pull =>
          rcases mb with _ | ⟨_ | ⟨v, rest⟩, k⟩
          · simpa [bodies, step, pull, Op.pushed] using ih none
          · simpa [bodies, step, pull, Op.pushed] using ih (some ⟨[], k⟩)
          · simpa [bodies, step, pull, Op.pushed] using (ih (some ⟨rest, k⟩)).cons₂ v
      | tick =>
          simpa [bodies, step, Op.pushed] using
            (ih (tick mb)).trans ((pending_tick_sublist mb).append_right _)

theorem bodies_pushes (mb : Option Mailbox) (ms : List SignalingInfo) :
    bodies mb (ms.map Op.push) = [] := by
  induction ms generalizing mb with
  | nil => rfl
  | cons m ms ih => exact ih _

/-- Pushed envelopes are appended until 64 are pending; the others are dropped. -/
theorem pending_after_pushes (mb : Option Mailbox) (ms : List SignalingInfo)
    (h : (pending mb).length ≤ 64) :
    pending (after mb (ms.map Op.push)) = (pending mb ++ ms).take 64 := by
  induction ms generalizing mb with
  | nil => simp [after, List.take_of_length_le h]
  | cons m ms ih =>
      have hlen : (pending (push mb m)).length ≤ 64 := by
        rw [pending_push]
        split_ifs
        · simp only [List.length_append, List.length_singleton]; omega
        · exact h
      simp only [List.map_cons, after, step]
      rw [ih _ hlen, pending_push]
      split_ifs
      · simp
      · rw [List.take_append_of_le_length (by omega), List.take_append_of_le_length (by omega)]

/-- `k` pulls in a row write the first `k` pending envelopes, then empty bodies. -/
theorem bodies_pulls (mb : Option Mailbox) (k : Nat) :
    bodies mb (List.replicate k .pull) =
      ((pending mb).take k).map some ++ List.replicate (k - (pending mb).length) none := by
  induction k generalizing mb with
  | zero => simp [bodies]
  | succ k ih =>
      rcases mb with _ | ⟨_ | ⟨v, rest⟩, c⟩ <;>
        simp [List.replicate_succ, bodies, step, pull, ih]

theorem after_none_ticks (n : Nat) : after none (List.replicate n .tick) = none := by
  induction n with
  | zero => rfl
  | succ n ih => exact ih

/-- A counter of at most `n` runs out within `n` ticks. -/
theorem after_ticks (fifo : List SignalingInfo) (k n : Nat) (hk : k ≤ n) (hn : 0 < n) :
    after (some ⟨fifo, k⟩) (List.replicate n .tick) = none := by
  induction n generalizing k with
  | zero => omega
  | succ n ih =>
      simp only [List.replicate_succ, after, step, tick]
      split_ifs
      · exact after_none_ticks n
      · exact ih (k - 1) (by omega) (by omega)

theorem bodies_ticks (mb : Option Mailbox) (n : Nat) : bodies mb (List.replicate n .tick) = [] := by
  induction n generalizing mb with
  | zero => rfl
  | succ n ih => exact ih _

theorem after_none_of_no_push (ops : List Op) (hops : ∀ op ∈ ops, op.pushed = none) :
    after none ops = none := by
  induction ops with
  | nil => rfl
  | cons op ops ih =>
      have hrest := ih fun o ho => hops o (List.mem_cons_of_mem op ho)
      cases op with
      | push info => exact absurd (hops _ (List.mem_cons_self _ ops)) (by simp [Op.pushed])
      | pull | tick => exact hrest

/-- Without a push, the counter only goes down: a mailbox whose counter is at most the number of
ticks is gone at the end, whatever pulls come in between. -/
theorem after_of_no_push (mb : Option Mailbox) (ops : List Op) (hops : ∀ op ∈ ops, op.pushed = none)
    (h : ∀ b, mb = some b → 0 < b.counter ∧ b.counter ≤ ops.count .tick) : after mb ops = none := by
  induction ops generalizing mb with
  | nil =>
      cases mb with
      | none => rfl
      | some b => have := h b rfl; simp only [List.count_nil] at this; omega
  | cons op ops ih =>
      have hrest : ∀ o ∈ ops, o.pushed = none := fun o ho => hops o (List.mem_cons_of_mem op ho)
      cases op with
      | push info => exact absurd (hops _ (List.mem_cons_self _ ops)) (by simp [Op.pushed])
      | pull =>
          refine ih _ hrest fun b hb => ?_
          have hcount : (Op.pull :: ops).count .tick = ops.count .tick :=
            List.count_cons_of_ne (by decide) ops
          rcases mb with _ | ⟨_ | ⟨v, rest⟩, k⟩ <;> simp only [step, pull] at hb <;> cases hb <;>
            simpa [hcount] using h _ rfl
      | tick =>
          rcases mb with _ | ⟨fifo, k⟩
          · exact after_none_of_no_push ops hrest
          · have hk := h _ rfl
            simp only [List.count_cons_self] at hk
            simp only [after, step, tick]
            split_ifs
            · exact after_none_of_no_push ops hrest
            · exact ih _ hrest fun b hb => by cases hb; dsimp only; omega

end Mailbox

section Serial

variable (id : String) (w : World)

/-- **Serial delivery.** When the requests of a peer run one at a time from a state where it has no
entry and no goroutine of it is running, its pulls write pushed envelopes, in push order, each at
most once. -/
theorem serialRun_pulls_sublist_pushes (ops : List Op) (hw : Tracks id w none) :
    (serialRun id w ops).2.reduceOption.Sublist (ops.filterMap Op.pushed) := by
  simpa [hw.serialRun_bodies ops] using Mailbox.bodies_reduceOption_sublist none ops

theorem serialRun_pulls_sublist_pushes_from_start :
    Tracks "a" World.init none ∧
      (serialRun "a" World.init [.push .zero, .pull, .pull]).2.reduceOption.Sublist
        ([Op.push .zero, .pull, .pull].filterMap Op.pushed) :=
  ⟨Tracks.init "a", serialRun_pulls_sublist_pushes "a" World.init _ (Tracks.init "a")⟩

/-- Pushes to a peer without a mailbox, then `k` pulls, one at a time: the pulls write the first 64
pushed envelopes in push order, as many as there are pulls, then empty bodies. The envelopes pushed
after the 64th are lost. -/
theorem serialRun_overflow (ms : List SignalingInfo) (k : Nat) (hw : Tracks id w none) :
    (serialRun id w (ms.map Op.push ++ List.replicate k .pull)).2 =
      ((ms.take 64).take k).map some ++ List.replicate (k - (ms.take 64).length) none := by
  rw [hw.serialRun_bodies, Mailbox.bodies_append, Mailbox.bodies_pushes, Mailbox.bodies_pulls,
    Mailbox.pending_after_pushes none ms (by simp)]
  simp

theorem serialRun_overflow_seventy :
    Tracks "a" World.init none ∧
      (serialRun "a" World.init ((List.replicate 70 SignalingInfo.zero).map Op.push ++
        List.replicate 64 .pull)).2 =
        (((List.replicate 70 SignalingInfo.zero).take 64).take 64).map some ++
          List.replicate (64 - ((List.replicate 70 SignalingInfo.zero).take 64).length) none :=
  ⟨Tracks.init "a", serialRun_overflow "a" World.init _ 64 (Tracks.init "a")⟩

/-- **Idle eviction.** Whatever requests came before, 15 ticks with no push remove the peer's entry
and counter and stop its watchdog; then a pull writes an empty body, and a push starts a new mailbox
whose envelope the next pull writes. -/
theorem serialRun_idle_eviction (ops : List Op) (info : SignalingInfo) (hw : Tracks id w none) :
    Tracks id (serialRun id w (ops ++ List.replicate 15 .tick)).1 none ∧
      (serialRun id w (ops ++ List.replicate 15 .tick ++ [.pull, .push info, .pull])).2 =
        (serialRun id w ops).2 ++ [none, some info] := by
  have hgone : Mailbox.after none (ops ++ List.replicate 15 .tick) = none := by
    rw [Mailbox.after_append]
    cases hmb : Mailbox.after none ops with
    | none => exact Mailbox.after_none_ticks 15
    | some mb =>
        obtain ⟨_, _, _, _, _, _, hle, _⟩ := hmb ▸ hw.serialRun_after ops
        exact Mailbox.after_ticks mb.fifo mb.counter 15 hle (by norm_num)
  refine ⟨hgone ▸ hw.serialRun_after _, ?_⟩
  rw [hw.serialRun_bodies, hw.serialRun_bodies, Mailbox.bodies_append, hgone,
    Mailbox.bodies_append, Mailbox.bodies_ticks, List.append_nil]
  rfl

theorem serialRun_idle_eviction_after_push :
    Tracks "a" World.init none ∧
      Tracks "a" (serialRun "a" World.init ([.push .zero] ++ List.replicate 15 .tick)).1 none ∧
        (serialRun "a" World.init ([.push .zero] ++ List.replicate 15 .tick ++
          [.pull, .push .zero, .pull])).2 =
          (serialRun "a" World.init [.push .zero]).2 ++ [none, some .zero] :=
  ⟨Tracks.init "a", serialRun_idle_eviction "a" World.init _ _ (Tracks.init "a")⟩

/-- **Polling does not keep a mailbox alive.** Only a successful push resets the counter: pulls do
not, though the comment on `resetAlive` counts receiving as activity. From any state that stands for
a reference mailbox of a peer, requests with no push among them and 15 ticks remove its entry and
counter and stop its watchdog, however many pulls come between the ticks. -/
theorem serialRun_polling_evicts (ops : List Op) (hops : ∀ op ∈ ops, op.pushed = none)
    (hticks : 15 ≤ ops.count .tick) {mb : Option Mailbox} (hw : Tracks id w mb) :
    Tracks id (serialRun id w ops).1 none := by
  have hgone : Mailbox.after mb ops = none := Mailbox.after_of_no_push mb ops hops fun b hb => by
    subst hb
    obtain ⟨_, _, _, _, _, hpos, hle, _⟩ := hw
    exact ⟨hpos, by omega⟩
  exact hgone ▸ hw.serialRun_after ops

theorem serialRun_polling_evicts_after_push :
    (∀ op ∈ (List.replicate 15 [Op.pull, .tick]).flatten, op.pushed = none) ∧
      15 ≤ (List.replicate 15 [Op.pull, .tick]).flatten.count .tick ∧
      Tracks "a" (serialRun "a" (serialRun "a" World.init [.push .zero]).1
        (List.replicate 15 [Op.pull, .tick]).flatten).1 none :=
  ⟨by decide, by decide, serialRun_polling_evicts "a" _ _ (by decide) (by decide)
    ((Tracks.init "a").serialRun_after [.push .zero])⟩

end Serial

end Sshx.Signaling
