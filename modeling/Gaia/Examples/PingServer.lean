/-
`PingConnection::HandleRequests` (`examples/pingserver/ping_iouring_server.cc:45`-`67`).

The handler reads with `read_some`, leaves its loop when `is_conn_closed(ec)` (connection
aborted or reset), `CHECK`s every other error, and when `PingCommand::Decode` completes a
request, writes the reply with `write_some` and `CHECK`s that error too. A failed `CHECK`
aborts the process, every other connection with it.

The model is a state machine. The state is the operation the handler waits on (a read, the
write of a reply) or how it ended (the socket shut down, a failed `CHECK`); a step consumes
the outcome the socket returns for that operation; a run consumes any sequence of outcomes.
`PingCommand` is not under `src/`, so the decoder is a parameter: any state, and any rule
for when a request is complete.

Results:
* `run_read_benign`: a benign close reported by a read always ends the handler cleanly.
* `run_ending`: against the classification of error codes (the first error ends the task,
  cleanly when it is a benign close, as a fault otherwise), the handler only ever differs by
  reporting a benign close as a fault; `handleRequests_ending` from a fresh connection.
* `handleRequests_benign_write_fails_check`: that difference is reachable under every
  decoder. The write of a reply is followed by `CHECK(!ec)` with no `is_conn_closed` test,
  so a peer that aborts or resets the connection while its reply is written fails the
  `CHECK` (`run_write_failed`).
* `handleRequests_zero_reads_running`: the classification is of error codes only, and the
  handler reads nothing else. An orderly close by the peer, which `read_some` reports as
  zero bytes and no error, does not end the loop: the handler reads again, and again.
* `handleRequests_replies`: over the socket calls the handler makes (`ops`), every write
  comes right after a read, `ping_qps` counts the replies written, and there is at most one
  reply per read.
-/
import Mathlib.Data.List.Chain
import Mathlib.Tactic.SplitIfs

set_option autoImplicit false

namespace Gaia.PingServer

/-! ## Error codes and outcomes -/

/-- A `boost::system::error_code` as `HandleRequests` reads it: zero, the two codes
`is_conn_closed` names, or any other nonzero code (whose value is only logged). -/
inductive ErrorCode
  | success
  | connectionAborted
  | connectionReset
  | other
  deriving DecidableEq, Repr

/-- The code as a condition: true for every nonzero code, which is when `CHECK(!ec)`
fails. -/
def ErrorCode.failed : ErrorCode → Bool
  | .success => false
  | _ => true

/-- `is_conn_closed(ec)`: connection aborted or connection reset. -/
def isConnClosed (ec : ErrorCode) : Bool :=
  ec == .connectionAborted || ec == .connectionReset

theorem failed_of_isConnClosed {ec : ErrorCode} (h : isConnClosed ec = true) :
    ec.failed = true := by
  cases ec <;> simp_all [isConnClosed, ErrorCode.failed]

/-- What `read_some` or `write_some` returns: the bytes transferred and the error code. -/
structure Outcome where
  res : Nat
  ec : ErrorCode
  deriving DecidableEq, Repr

/-- `PingCommand` as `HandleRequests` uses it (not under `src/`): a state, and
`Decode(res)`, which takes the `res` bytes just read and says whether a whole request is
now decoded. The reply is not modelled; the handler reads only the error of its write. -/
structure Decoder (σ : Type) where
  decode : σ → Nat → σ × Bool

/-- A decoder that completes a request with every read of at least one byte, as
`PingCommand` does for a `PING` that arrives in one read. -/
def everyRead : Decoder Unit := ⟨fun _ res => ((), decide (0 < res))⟩

/-! ## The handler -/

/-- Where the handler is. -/
inductive Phase
  /-- waiting on `read_some` -/
  | reading
  /-- waiting on `write_some` of a reply -/
  | writing
  /-- out of the loop, after `Shutdown(SHUT_RDWR)` -/
  | shutDown
  /-- `CHECK(!ec)` failed on `ec`: the process aborts -/
  | checkFailed (ec : ErrorCode)
  deriving DecidableEq, Repr

/-- A phase in which the handler still issues operations. -/
def Phase.live : Phase → Bool
  | .reading | .writing => true
  | _ => false

/-- The handler's state: its phase, the decoder's state `cmd_`, and `ping_qps`. -/
structure Conn (σ : Type) where
  phase : Phase
  cmd : σ
  qps : Nat

variable {σ : Type} (D : Decoder σ)

/-- The rest of the loop body after a read without error: `Decode(res)`, and on a whole
request `ping_qps.Inc()` and the write of the reply. -/
def decodeRequest (c : Conn σ) (res : Nat) : Conn σ :=
  let (cmd, decoded) := D.decode c.cmd res
  if decoded then { c with phase := .writing, cmd := cmd, qps := c.qps + 1 }
  else { c with cmd := cmd }

/-- One pass through the body of the loop: the handler consumes the outcome of the
operation it waits on. -/
def step (c : Conn σ) (o : Outcome) : Conn σ :=
  match c.phase with
  | .reading =>
    if isConnClosed o.ec then { c with phase := .shutDown }
    else if o.ec.failed then { c with phase := .checkFailed o.ec }
    else decodeRequest D c o.res
  | .writing =>
    if o.ec.failed then { c with phase := .checkFailed o.ec } else { c with phase := .reading }
  | _ => c

/-- The handler over a sequence of outcomes. -/
def run (c : Conn σ) (outs : List Outcome) : Conn σ := outs.foldl (step D) c

/-- `HandleRequests()` on a fresh connection, over the outcomes the socket returns. -/
def handleRequests (cmd : σ) (outs : List Outcome) : Conn σ := run D ⟨.reading, cmd, 0⟩ outs

@[simp] theorem run_nil (c : Conn σ) : run D c [] = c := rfl

@[simp] theorem run_cons (c : Conn σ) (o : Outcome) (outs : List Outcome) :
    run D c (o :: outs) = run D (step D c o) outs := rfl

/-! ## Steps -/

/-- The phase after a read. -/
theorem step_phase_reading {c : Conn σ} (h : c.phase = .reading) (o : Outcome) :
    (step D c o).phase =
      if isConnClosed o.ec then .shutDown else if o.ec.failed then .checkFailed o.ec
      else if (D.decode c.cmd o.res).2 then .writing else .reading := by
  simp only [step, h, decodeRequest]
  split_ifs <;> simp_all

/-- The phase after a write. -/
theorem step_phase_writing {c : Conn σ} (h : c.phase = .writing) (o : Outcome) :
    (step D c o).phase = if o.ec.failed then .checkFailed o.ec else .reading := by
  simp only [step, h]
  split_ifs <;> rfl

/-- A handler out of its loop issues no operation: it ignores every outcome. -/
theorem step_of_not_live {c : Conn σ} (h : c.phase.live = false) (o : Outcome) :
    step D c o = c := by
  unfold step; split <;> simp_all [Phase.live]

theorem run_of_not_live {c : Conn σ} (h : c.phase.live = false) (outs : List Outcome) :
    run D c outs = c := by
  induction outs with
  | nil => rfl
  | cons o outs ih => rw [run_cons, step_of_not_live D h, ih]

/-- A successful operation keeps the handler in its loop. -/
theorem step_live {c : Conn σ} (h : c.phase.live = true) {o : Outcome}
    (hok : o.ec.failed = false) : (step D c o).phase.live = true := by
  have hc : isConnClosed o.ec = false := by
    cases hb : isConnClosed o.ec
    · rfl
    · simp [failed_of_isConnClosed hb] at hok
  cases hp : c.phase <;> simp only [hp, Phase.live, Bool.false_eq_true] at h
  · rw [step_phase_reading D hp, hc, hok]
    simp only [Bool.false_eq_true, ↓reduceIte]; split <;> rfl
  · rw [step_phase_writing D hp, hok]; rfl

/-- A failed operation ends the loop. -/
theorem step_not_live_of_failed (c : Conn σ) {o : Outcome} (hf : o.ec.failed = true) :
    (step D c o).phase.live = false := by
  cases hp : c.phase
  · rw [step_phase_reading D hp, hf]
    simp only [↓reduceIte]; split <;> rfl
  · rw [step_phase_writing D hp, hf]; rfl
  all_goals rw [step_of_not_live D (by rw [hp]; rfl), hp]; rfl

/-- The loop ends with the first failed operation. -/
theorem run_cons_of_failed (c : Conn σ) {o : Outcome} (hf : o.ec.failed = true)
    (outs : List Outcome) : run D c (o :: outs) = step D c o := by
  rw [run_cons, run_of_not_live D (step_not_live_of_failed D c hf)]

/-! ## Runs -/

/-- **Any error on a write fails the `CHECK`**, a benign close included, whatever the
socket returns after. -/
theorem run_write_failed {c : Conn σ} (h : c.phase = .writing) {o : Outcome}
    (hf : o.ec.failed = true) (outs : List Outcome) :
    (run D c (o :: outs)).phase = .checkFailed o.ec := by
  rw [run_cons_of_failed D c hf, step_phase_writing D h, if_pos hf]

/-! ## Against the error classification -/

/-- How a connection task ends. -/
inductive Ending
  | running
  | clean
  | fault (ec : ErrorCode)
  deriving DecidableEq, Repr

/-- The ending a phase stands for. -/
def Phase.ending : Phase → Ending
  | .shutDown => .clean
  | .checkFailed ec => .fault ec
  | _ => .running

/-- The ending the classification of error codes asks for: the task runs until an operation
fails; a benign close ends it cleanly, any other error as a fault of this connection. Only
error codes are classified: an outcome without error, a read of zero bytes included, keeps
the task running. -/
def specEnding : List Outcome → Ending
  | [] => .running
  | o :: outs =>
    if isConnClosed o.ec then .clean else if o.ec.failed then .fault o.ec else specEnding outs

/-- The handler ends as the classification asks, or reports a benign close as a fault. -/
def EndsAsSpecified (e spec : Ending) : Prop :=
  e = spec ∨ ∃ ec, isConnClosed ec = true ∧ e = .fault ec ∧ spec = .clean

theorem run_ending {c : Conn σ} (h : c.phase.live = true) (outs : List Outcome) :
    EndsAsSpecified (run D c outs).phase.ending (specEnding outs) := by
  induction outs generalizing c with
  | nil =>
    left
    cases hp : c.phase <;> simp_all [Phase.live, Phase.ending, specEnding]
  | cons o outs ih =>
    cases hf : o.ec.failed
    · have hb : isConnClosed o.ec = false := by
        cases hb : isConnClosed o.ec
        · rfl
        · simp [failed_of_isConnClosed hb] at hf
      simpa only [run_cons, specEnding, hb, hf, if_false, Bool.false_eq_true]
        using ih (step_live D h hf)
    · rw [run_cons_of_failed D c hf]
      simp only [specEnding, hf, if_true]
      cases hp : c.phase <;> simp only [hp, Phase.live, Bool.false_eq_true] at h
      · rw [step_phase_reading D hp, hf]
        simp only [↓reduceIte]
        left; split <;> rfl
      · rw [step_phase_writing D hp, hf, if_pos rfl]
        cases hb : isConnClosed o.ec
        · left; rfl
        · right; exact ⟨o.ec, hb, rfl, rfl⟩

/-- **The handler against the error classification.** From a fresh connection and over any
outcomes, the handler ends as the classification asks, except that it may report a benign
close as a fault. -/
theorem handleRequests_ending (cmd : σ) (outs : List Outcome) :
    EndsAsSpecified (handleRequests D cmd outs).phase.ending (specEnding outs) :=
  run_ending D (c := ⟨.reading, cmd, 0⟩) rfl outs

/-- **A benign close on the write of a reply fails the `CHECK`.** Under every decoder, when
a read completes a request and `write_some` of the reply reports the connection aborted or
reset, the handler ends in a failed `CHECK`, which aborts the process, where the
classification asks for a clean close. -/
theorem handleRequests_benign_write_fails_check (cmd : σ) (n : Nat)
    (hdec : (D.decode cmd n).2 = true) (o : Outcome) (hb : isConnClosed o.ec = true)
    (outs : List Outcome) :
    (handleRequests D cmd (⟨n, .success⟩ :: o :: outs)).phase = .checkFailed o.ec ∧
      specEnding (⟨n, .success⟩ :: o :: outs) = .clean := by
  have hw : (step D ⟨.reading, cmd, 0⟩ ⟨n, .success⟩).phase = .writing := by
    rw [step_phase_reading D rfl]; simp [isConnClosed, ErrorCode.failed, hdec]
  refine ⟨?_, by rw [specEnding, specEnding, if_pos hb]; rfl⟩
  rw [handleRequests, run_cons, run_write_failed D hw (failed_of_isConnClosed hb)]

/-- A `PING` read in one piece, then a reset while its reply is written. -/
theorem handleRequests_reset_after_ping :
    (everyRead.decode () 14).2 = true ∧ isConnClosed ErrorCode.connectionReset = true ∧
      (handleRequests everyRead () [⟨14, .success⟩, ⟨0, .connectionReset⟩]).phase =
        .checkFailed .connectionReset ∧
      specEnding [⟨14, .success⟩, ⟨0, .connectionReset⟩] = .clean :=
  ⟨rfl, rfl, handleRequests_benign_write_fails_check everyRead () 14 rfl
    ⟨0, .connectionReset⟩ rfl []⟩

/-- Along outcomes without error the handler stays in its loop. -/
theorem run_live {c : Conn σ} (h : c.phase.live = true) {outs : List Outcome}
    (hok : ∀ o ∈ outs, o.ec.failed = false) : (run D c outs).phase.live = true := by
  induction outs generalizing c with
  | nil => exact h
  | cons o outs ih =>
    exact ih (step_live D h (hok o (List.mem_cons_self o outs)))
      fun o' ho' => hok o' (List.mem_cons_of_mem o ho')

/-- **An orderly close does not end the handler.** `read_some` reports that the peer closed
the connection by returning zero bytes and no error. The handler tests the error code only,
so under every decoder, after any number of such reads, it is still in its loop and reads
again, where the task should return. -/
theorem handleRequests_zero_reads_running (cmd : σ) (k : Nat) :
    (handleRequests D cmd (List.replicate k ⟨0, .success⟩)).phase.live = true :=
  run_live D (c := ⟨.reading, cmd, 0⟩) rfl fun o ho => by rw [List.eq_of_mem_replicate ho]; rfl

/-! ## The socket calls

The handler as the socket sees it: the calls it makes, in order. A read that completes a
request is followed by one `write_some` of the reply and by no other, so `ping_qps` counts
the replies written, the one still in flight apart, and there is never more than one reply
per read: two requests that arrive in one read (pipelining) get one reply between them. -/

/-- A socket call of `HandleRequests`. -/
inductive Op
  | read
  | write
  | shutdown
  deriving DecidableEq, Repr

/-- The calls one pass through the loop makes: the operation the outcome answers, and
`Shutdown(SHUT_RDWR)` when that outcome ends the loop by a benign close. A handler out of its
loop makes none. -/
def stepOps (c : Conn σ) (o : Outcome) : List Op :=
  match c.phase with
  | .reading => .read :: if (step D c o).phase = .shutDown then [.shutdown] else []
  | .writing => [.write]
  | _ => []

/-- The calls the handler makes over a sequence of outcomes. -/
def ops (c : Conn σ) : List Outcome → List Op
  | [] => []
  | o :: outs => stepOps D c o ++ ops (step D c o) outs

/-- A handler out of its loop makes no call. -/
theorem ops_of_not_live {c : Conn σ} (h : c.phase.live = false) (outs : List Outcome) :
    ops D c outs = [] := by
  induction outs with
  | nil => rfl
  | cons o outs ih =>
    rw [ops, step_of_not_live D h, ih]
    cases hp : c.phase <;> simp_all [stepOps, Phase.live]

/-- The reply in flight: one while the handler waits on its write. -/
def pending (c : Conn σ) : Nat := if c.phase = .writing then 1 else 0

/-- One pass: a reply is counted when its request is decoded and written on the next pass,
and a read makes at most one reply pending. -/
theorem stepOps_count (c : Conn σ) (o : Outcome) :
    (stepOps D c o).count .write + pending (step D c o) + c.qps = (step D c o).qps + pending c ∧
      (stepOps D c o).count .write + pending (step D c o) ≤ (stepOps D c o).count .read + pending c := by
  cases hp : c.phase with
  | reading =>
    have hq : (step D c o).qps = c.qps + pending (step D c o) := by
      simp only [step, hp, decodeRequest, pending]
      split_ifs <;> simp_all
    have hops : (stepOps D c o).count .write = 0 ∧ (stepOps D c o).count .read = 1 := by
      simp only [stepOps, hp]
      split_ifs <;> simp
    have hle : pending (step D c o) ≤ 1 := by unfold pending; split_ifs <;> omega
    simp only [pending, hp, reduceCtorEq, if_false] at hq hle ⊢
    omega
  | writing =>
    have hq : (step D c o).qps = c.qps := by simp only [step, hp]; split_ifs <;> rfl
    have hpend : pending (step D c o) = 0 := by
      rw [pending, step_phase_writing D hp]
      split_ifs <;> simp_all
    rw [hq, hpend]
    simp [stepOps, pending, hp]
    omega
  | shutDown | checkFailed ec =>
    rw [step_of_not_live D (by rw [hp]; rfl)]
    simp [stepOps, hp]
    omega

/-- Along a run, the writes issued and the reply in flight make up the requests counted, and
never outnumber the reads. -/
theorem ops_count (c : Conn σ) (outs : List Outcome) :
    (ops D c outs).count .write + pending (run D c outs) + c.qps = (run D c outs).qps + pending c ∧
      (ops D c outs).count .write + pending (run D c outs) ≤ (ops D c outs).count .read + pending c := by
  induction outs generalizing c with
  | nil => simp only [ops, run_nil, List.count_nil]; omega
  | cons o outs ih =>
    obtain ⟨h1, h2⟩ := stepOps_count D c o
    obtain ⟨ih1, ih2⟩ := ih (step D c o)
    simp only [ops, run_cons, List.count_append]
    omega

/-- Along a run, every `write_some` comes right after a `read_some`, and a run starts with a
write only when the handler waits on one. -/
theorem ops_write_after_read (c : Conn σ) (outs : List Outcome) :
    (ops D c outs).Chain' (fun a b => b = .write → a = .read) ∧
      ((ops D c outs).head? = some .write → c.phase = .writing) := by
  induction outs generalizing c with
  | nil => exact ⟨List.chain'_nil, fun h => by cases h⟩
  | cons o outs ih =>
    obtain ⟨ihc, ihh⟩ := ih (step D c o)
    simp only [ops]
    cases hp : c.phase with
    | reading =>
      refine ⟨?_, by simp [stepOps, hp]⟩
      by_cases hs : (step D c o).phase = .shutDown
      · rw [ops_of_not_live D (by rw [hs]; rfl)]
        simp [stepOps, hp, hs]
      · simp only [stepOps, hp, if_neg hs, List.singleton_append]
        exact List.chain'_cons'.2 ⟨fun _ _ _ => rfl, ihc⟩
    | writing =>
      have hw : (step D c o).phase ≠ .writing := by
        rw [step_phase_writing D hp]; split_ifs <;> simp
      simp only [stepOps, hp, List.singleton_append, List.head?_cons, Option.some.injEq,
        implies_true, and_true]
      exact List.chain'_cons'.2 ⟨fun b hb hbw => absurd (ihh (hbw ▸ hb)) hw, ihc⟩
    | shutDown | checkFailed ec =>
      have hl : c.phase.live = false := by rw [hp]; rfl
      rw [step_of_not_live D hl, ops_of_not_live D hl]
      simp [stepOps, hp]

/-- **Every request counted gets one reply, right after the read that completed it.** From a
fresh connection and over any outcomes: every `write_some` comes right after a `read_some`;
`ping_qps` is the number of `write_some` calls, plus one while a reply is in flight; and it
never exceeds the number of `read_some` calls, so requests that arrive together in one read
get one reply between them. -/
theorem handleRequests_replies (cmd : σ) (outs : List Outcome) :
    (ops D ⟨.reading, cmd, 0⟩ outs).Chain' (fun a b => b = .write → a = .read) ∧
      (ops D ⟨.reading, cmd, 0⟩ outs).head? ≠ some .write ∧
      (ops D ⟨.reading, cmd, 0⟩ outs).count .write + pending (handleRequests D cmd outs) =
        (handleRequests D cmd outs).qps ∧
      (handleRequests D cmd outs).qps ≤ (ops D ⟨.reading, cmd, 0⟩ outs).count .read := by
  obtain ⟨hc, hh⟩ := ops_write_after_read D ⟨.reading, cmd, 0⟩ outs
  obtain ⟨h1, h2⟩ := ops_count D ⟨.reading, cmd, 0⟩ outs
  have h0 : pending (⟨.reading, cmd, 0⟩ : Conn σ) = 0 := rfl
  have hq0 : (⟨.reading, cmd, 0⟩ : Conn σ).qps = 0 := rfl
  unfold handleRequests
  exact ⟨hc, fun h => Phase.noConfusion (hh h), by omega, by omega⟩

end Gaia.PingServer
