import Phrasebook.Proofs.Engine.Change

/-!
# Histories of runs

The history of a run lists what was done, what was answered, and which files were read, in order. It
is what statements about "the last operation that ..." speak of.

* `Session.run_induction`: a property that every operation of a run keeps holds at its end;
* `Session.run_lastEvent`: what only certain events change is at the end of a run as the last of them
  left it.
-/

namespace Phrasebook

/-- One operation of a run. -/
structure Event where
  /-- What was done. -/
  operation : Operation
  /-- What was answered. -/
  reply : Reply
  /-- The file that was read, if any. -/
  file : Option String

/-- The last event of a kind. -/
def lastEvent (kind : Event → Bool) (events : List Event) : Option Event :=
  (events.filter kind).getLast?

/-- The last event of a kind is among the later ones, unless it is the first one. -/
theorem lastEvent_cons (kind : Event → Bool) (event : Event) (events : List Event) :
    lastEvent kind (event :: events) =
      (lastEvent kind events).or (if kind event then some event else none) := by
  rw [lastEvent, lastEvent, List.filter_cons]
  split
  · rw [List.getLast?_cons]
    cases (events.filter kind).getLast? <;> rfl
  · simp

/-- The file that an operation reads. A reload reads the file that the locale came from. -/
def Engine.fileRead (e : Engine) : Operation → Option String
  | .loadFile _ _ path => some path
  | .reload _ locale => e.paths.get? locale
  | _ => none

namespace Session

/-- The event of an operation. -/
def event (s : Session) (op : Operation) : Event :=
  { operation := op, reply := (s.step op).1, file := s.engine.fileRead op }

/-- The history of a run. -/
def events (s : Session) : List Operation → List Event
  | [] => []
  | op :: ops => s.event op :: (s.step op).2.events ops

/-- A run goes on from where its first operation leads. -/
@[simp]
theorem run_cons (s : Session) (op : Operation) (ops : List Operation) :
    s.run (op :: ops) = (s.step op).2.run ops :=
  rfl

/-- A property that every operation of a run keeps holds at its end. -/
theorem run_induction {P : Session → Prop} {s : Session} {ops : List Operation} (h : P s)
    (hstep : ∀ (t : Session), ∀ op ∈ ops, P t → P (t.step op).2) : P (s.run ops) := by
  induction ops generalizing s with
  | nil => exact h
  | cons op ops ih =>
    rw [run_cons]
    apply ih
    · exact hstep s op List.mem_cons_self h
    · intro t later hlater
      exact hstep t later (List.mem_cons_of_mem op hlater)

section LastEvent

variable {α : Type} (view : Engine → α) (kind : Event → Bool) (Leaves : Event → α → Prop)

/-- Where events of one kind determine a part of the engine and all others leave it alone, the last
event of that kind has determined it at the end of a run. -/
theorem run_lastEvent
    (hleaves : ∀ (s : Session) (op : Operation), kind (s.event op) = true →
      Leaves (s.event op) (view (s.step op).2.engine))
    (hkeeps : ∀ (s : Session) (op : Operation), kind (s.event op) = false →
      view (s.step op).2.engine = view s.engine)
    (s : Session) (ops : List Operation) :
    match lastEvent kind (s.events ops) with
    | none => view (s.run ops).engine = view s.engine
    | some event => Leaves event (view (s.run ops).engine) := by
  -- By induction on the operations: a later event counts, and only without one the first.
  induction ops generalizing s with
  | nil => rfl
  | cons op ops ih =>
    have hlater := ih (s.step op).2
    rw [events, lastEvent_cons, run_cons]
    cases hlast : lastEvent kind ((s.step op).2.events ops) with
    | some event => simpa [hlast] using hlater
    | none =>
      rw [hlast] at hlater
      dsimp only at hlater
      rw [hlater]
      cases hkind : kind (s.event op) with
      | true => simpa using hleaves s op hkind
      | false => simpa using hkeeps s op hkind

end LastEvent

end Session

end Phrasebook
