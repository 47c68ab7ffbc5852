import Phrasebook.Proofs.Engine.Paths

/-!
# Writes and failures

An operation that fails leaves no trace but a count: a refused write changes nothing at all, and a
request that fails is counted as a miss. A write that succeeds makes the next generation and drops the
kept answers, so the generation of a catalog counts the successful writes that led to it.

* `Engine.Change.eq_of_refused`: a refused write changes nothing;
* `Engine.answers_resolve_of_failure`: a failed request changes no kept answer;
* `Session.generation_run`: the generation counts the writes of a run.
-/

namespace Phrasebook

namespace Engine

variable {e next : Engine} {past : List Catalog} {op : Operation} {reply : Reply}

/-! ### Writes -/

/-- A write that is refused changes nothing. Removing a locale that is not there forgets no file,
because none is remembered for it. -/
theorem Change.eq_of_refused (h : e.Change past op reply next) (hloaded : e.PathsLoaded)
    (hrefused : reply.refused = true) : next = e := by
  cases h with
  | refused hop failure => rfl
  | placed hop root hroot => simp [Reply.refused] at hrefused
  | installed choose => simp [Reply.refused] at hrefused
  | removed hfound => simp [Reply.refused] at hrefused
  | absent hmissing => rw [Table.erase_of_get?_eq_none (hloaded.get?_eq_none hmissing)]
  | kept hop hwrote hkept hcatalog hpaths =>
    rw [hkept] at hrefused
    cases hrefused

/-- A write that succeeds makes the next generation, and nothing else does. -/
theorem Change.generation (h : e.Change past op reply next) :
    next.catalog.generation = e.catalog.generation + if reply.wrote then 1 else 0 := by
  cases h with
  | refused hop failure => rfl
  | placed hop root hroot => rfl
  | installed choose => rfl
  | removed hfound => rfl
  | absent hmissing => rfl
  | kept hop hwrote hrefused hcatalog hpaths => simp [hcatalog, hwrote]

/-- A write that succeeds drops the kept answers. -/
theorem Change.size_answers (h : e.Change past op reply next) (hwrote : reply.wrote = true) :
    next.answers.size = 0 := by
  cases h with
  | refused hop failure => simp [Reply.wrote] at hwrote
  | placed hop root hroot => exact Answers.size_clear _
  | installed choose => exact Answers.size_clear _
  | removed hfound => exact Answers.size_clear _
  | absent hmissing => simp [Reply.wrote] at hwrote
  | kept hop hkept hrefused hcatalog hpaths =>
    rw [hkept] at hwrote
    cases hwrote

/-! ### Requests -/

/-- A request that fails is counted as a miss and leaves the kept answers as they are. -/
theorem answers_resolve_of_failure {key locale : String} {params : Params} {policy : Policy}
    {failure : Failure} (h : (e.resolve key locale params policy).1 = .error failure) :
    (e.resolve key locale params policy).2.answers =
      { e.answers with misses := e.answers.misses + 1 } := by
  let request : Request :=
    { key, locale, fallback := policy.fallback, generation := e.catalog.generation, params }
  let compute : Memo → Except Failure String × Memo := fun memo =>
    e.catalog.resolve e.config.escape memo key locale policy.fallback params
  -- The strict answer is a failure as well, so it was not found and not stored.
  have hsettled :
      policy.settle key (e.answers.getOrCompute request e.memo compute).1 = .error failure := h
  have hstrict := Policy.eq_error_of_settle hsettled
  exact Answers.getOrCompute_of_eq_error e.memo compute hstrict

/-- An operation that answers a request with a failure changes nothing but the count of misses and
the memo. -/
theorem answers_perform_of_failure {failure : Failure}
    (h : (e.perform past op).1 = .answer (.error failure)) :
    (e.perform past op).2.catalog = e.catalog ∧ (e.perform past op).2.paths = e.paths ∧
      (e.perform past op).2.answers = { e.answers with misses := e.answers.misses + 1 } := by
  cases op with
  | resolve key locale bindings =>
    exact ⟨rfl, rfl, answers_resolve_of_failure (Reply.answer.inj h)⟩
  | get key bindings => exact ⟨rfl, rfl, answers_resolve_of_failure (Reply.answer.inj h)⟩
  | resolveWith key locale bindings policy =>
    exact ⟨rfl, rfl, answers_resolve_of_failure (Reply.answer.inj h)⟩
  | resolveTable key locale params policy =>
    exact ⟨rfl, rfl, answers_resolve_of_failure (Reply.answer.inj h)⟩
  | _ => simp [perform, Prod.map] at h

end Engine

namespace Session

/-! ### Runs -/

/-- The generation grows by the number of successful writes. -/
theorem generation_run (s : Session) (ops : List Operation) :
    (s.run ops).engine.catalog.generation =
      s.engine.catalog.generation + (s.events ops).countP fun event => event.reply.wrote := by
  induction ops generalizing s with
  | nil => rfl
  | cons op ops ih =>
    have hstep : (s.step op).2.engine.catalog.generation =
        s.engine.catalog.generation + if (s.event op).reply.wrote then 1 else 0 :=
      (s.engine.change_perform s.past op).generation
    rw [run_cons, ih, hstep, events, List.countP_cons]
    omega

/-- **Failures change nothing.** After any run, a write that is refused leaves the engine exactly as
it was. A request that fails leaves the catalog, the remembered files and the kept answers with their
order, and is counted as one miss. A write that succeeds makes the next generation and drops the kept
answers; so the generation is the number of successful writes. -/
theorem failures_change_nothing (config : Config) (route : Request → Nat) (ops : List Operation) :
    let s := (start config route).run ops
    s.engine.catalog.generation =
        ((start config route).events ops).countP (fun event => event.reply.wrote) ∧
      ∀ op,
        ((s.step op).1.refused = true → (s.step op).2.engine = s.engine) ∧
        (∀ failure, (s.step op).1 = .answer (.error failure) →
          (s.step op).2.engine.catalog = s.engine.catalog ∧
          (s.step op).2.engine.paths = s.engine.paths ∧
          (s.step op).2.engine.answers =
            { s.engine.answers with misses := s.engine.answers.misses + 1 }) ∧
        ((s.step op).1.wrote = true →
          (s.step op).2.engine.catalog.generation = s.engine.catalog.generation + 1 ∧
          (s.step op).2.engine.answers.size = 0) := by
  intro s
  have hloaded : s.engine.PathsLoaded := Engine.Reachable.pathsLoaded ⟨config, route, ops, rfl⟩
  refine ⟨?_, fun op => ?_⟩
  · rw [generation_run]
    simp [start, Engine.new, Catalog.empty]
  · have hchange := s.engine.change_perform s.past op
    refine ⟨hchange.eq_of_refused hloaded, ?_, ?_⟩
    · intro failure hfail
      exact Engine.answers_perform_of_failure hfail
    · intro hwrote
      refine ⟨?_, hchange.size_answers hwrote⟩
      have hone : (if (s.engine.perform s.past op).1.wrote then 1 else 0) = 1 := if_pos hwrote
      have hnext := hchange.generation
      rw [hone] at hnext
      exact hnext

end Session

end Phrasebook
