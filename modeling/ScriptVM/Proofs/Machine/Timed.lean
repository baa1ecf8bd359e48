/-
# Runs by the clock

The clock goes on while a program runs.  A run is taken through given times, one for each of its
steps (`Machine.Progress.timed`), so that one can tell what two runs do that read the same times.  A
run that is over before the last time has not gone through them.
-/
import ScriptVM.Proofs.Session.Soundness

namespace ScriptVM

namespace Machine

variable {ground : Ground} {m k b : Machine} {now : Float} {times more : List Float}

/-- The machine at another time. -/
def showing (m : Machine) (now : Float) : Machine :=
  { m with now }

/-- Another time does not disturb a run. -/
theorem Running.showing (h : m.Running ground) (now : Float) : (m.showing now).Running ground :=
  h.pause ⟨0, id, now⟩

namespace Progress

variable {p q start : Progress}

/-- Goes on with a run by one step at each of some times; none if it ends before the last one. -/
def timed : List Float → Progress → Option Progress
  | [], p => some p
  | now :: times, .running m => timed times ((m.showing now).advance 1)
  | _ :: _, _ => none

/-- A run goes through some times and then through others. -/
theorem timed_append (times more : List Float) (p : Progress) :
    p.timed (times ++ more) = (p.timed times).bind (timed more) := by
  induction times generalizing p with
  | nil => rfl
  | cons now times ih =>
    cases p with
    | running m => exact ih _
    | finished _ _ | failed _ _ => rfl

/-- Once a run has come somewhere at some times, it goes on from there. -/
theorem timed_append_of_eq (h : p.timed times = some q) (more : List Float) :
    p.timed (times ++ more) = q.timed more := by
  rw [timed_append, h]
  rfl

/-- A step is taken at the first time, and the others follow. -/
theorem timed_cons_of_step (h : Exec.step (m.showing now) = .ok none k) (times : List Float) :
    (running m).timed (now :: times) = (running k).timed times := by
  rw [timed, Machine.advance, h]
  rfl

/-- The machines that a run comes to at some times are among those that it may come to. -/
theorem Visits.timed (h : start.Visits m) (hb : (running m).timed times = some (.running b)) :
    start.Visits b := by
  induction times generalizing m with
  | nil =>
    obtain rfl := running.inj (Option.some.inj hb)
    exact h
  | cons now times ih =>
    have hnow : start.Visits (m.showing now) := h.pause ⟨0, id, now⟩
    rw [Progress.timed] at hb
    cases hnext : (m.showing now).advance 1 with
    | running k =>
      rw [hnext] at hb
      exact ih (hnow.advance hnext) hb
    | finished _ _ | failed _ _ =>
      rw [hnext] at hb
      cases times <;> cases hb

/-- A run that never finds its code broken does not do so at any times. -/
theorem Sound.timed (h : p.Sound ground) (hq : p.timed times = some q) : q.Sound ground := by
  induction times generalizing p with
  | nil =>
    obtain rfl := Option.some.inj hq
    exact h
  | cons now times ih =>
    cases p with
    | running m => exact ih ((Running.showing h now).advance_sound 1) hq
    | finished _ _ | failed _ _ => cases hq

end Progress

end Machine

/-- Takes a run through some times, at the last of which it ends. -/
def Runner.timed (times : List Float) : Runner Option :=
  fun progress => (progress.timed times).bind Machine.Progress.outcome?

end ScriptVM
